import Calaos.JsonCodec
/-!
# Which responses the client reads back

A value is read back exactly when it is `readable`: all are, but the outputs with a duration and the
points in time with a part left out, for which the decoder expects what the encoder does not write.
One unreadable item makes the whole answer unreadable.
-/
namespace Calaos

open Serde

-- The keys of one object are literals, so `simp` looks each of them up. It must not leave its steps to
-- the kernel, which would compute with `2 ^ 32` in unary: hence `-implicitDefEqProofs` below.
attribute [local simp] field required defaulted De.struct De.flatten De.tagged variantName variantNameOrIndex
  De.untagged De.unit De.string

/-! ## Inputs and outputs -/

/-- A date that names its year, month and day. -/
def Date.readable (d : Date) : Bool := d.year.isSome && d.month.isSome && d.day.isSome

def InputKind.readable : InputKind → Bool
  | .inputTime d => d.readable
  | _ => true

def OutputKind.readable : OutputKind → Bool
  | .woShutter _ => false
  | _ => true

def JsonIOData.readable : JsonIOData → Bool
  | .input io => io.kind.readable
  | .output io => io.kind.readable

theorem u32FromString_ofUInt32 (n : UInt32) : u32FromString (.ofUInt32 n) = some n := by
  rw [u32FromString, orParsed_ofUInt32, unsigned_ofUInt32]
  simp

theorem optI32FromString_ofInt32 (n : Int32) : optI32FromString (.ofInt32 n) = some (some n) := by
  rw [optI32FromString, orParsed_ofInt32, signed_ofInt32]
  simp

theorem wagoIO_decode (io : WagoIO) : WagoIO.decode (.obj io.entries) = some io := by
  simp -implicitDefEqProofs [u32FromString_ofUInt32, WagoIO.decode, WagoIO.entries]

/-- An absent number is written as `null`, which no number decoder accepts. -/
theorem date_decode (d : Date) : Date.decode (.obj d.entries) = if d.readable then some d else none := by
  obtain ⟨year, month, day, hour, min, sec⟩ := d
  have hnull : u32FromString .null = none ∧ optI32FromString .null = none := ⟨rfl, rfl⟩
  cases year <;> cases month <;> cases day <;>
    simp -implicitDefEqProofs [Date.decode, Date.entries, encodeOpt, Date.readable, optU32FromString,
      u32FromString_ofUInt32, optI32FromString_ofInt32, hnull.1, hnull.2]

/-- A duration is written as an object, which no number decoder accepts. -/
theorem wagoIOUpDown_decode (io : WagoIOUpDown) : WagoIOUpDown.decode (.obj io.entries) = none := by
  have htime : secondsFromString io.time.encode = none := rfl
  simp -implicitDefEqProofs [WagoIOUpDown.decode, WagoIOUpDown.entries, u32FromString_ofUInt32, htime]

/-- The tag is the first entry of a kind, and no field has its name. -/
theorem tagged_cons {α : Type} {tag name : String} {entries : Entries} {variantOf : De String}
    {variant : String → De α} (hn : variantOf (.str name) = some name) (ht : ∀ e ∈ entries, e.1 ≠ tag) :
    De.tagged tag variantOf variant (.obj ((tag, .str name) :: entries)) = variant name (.obj entries) := by
  have hsome : entries.filter (fun e => decide (e.1 = tag)) = [] :=
    List.filter_eq_nil_iff.2 fun e he => by simpa using ht e he
  have hall : entries.filter (fun e => !decide (e.1 = tag)) = entries :=
    List.filter_eq_self.2 fun e he => by simpa using ht e he
  simp [hn, hsome, hall]

theorem inputKind_decode (kind : InputKind) :
    InputKind.decode (.obj kind.entries) = if kind.readable then some kind else none := by
  cases kind with
  | inputTime d =>
    rw [InputKind.entries, InputKind.decode, tagged_cons rfl (by simp [Date.entries])]
    cases h : d.readable <;> simp -implicitDefEqProofs [date_decode, InputKind.readable, h]
  | wiDigitalBP io | wiDigitalLong io | wiDigitalTriple io =>
    rw [InputKind.entries, InputKind.decode, tagged_cons rfl (by simp [ WagoIO.entries])]
    simp -implicitDefEqProofs [wagoIO_decode, InputKind.readable]
  | mySensorsInputAnalog | mySensorsInputTemp | scenario =>
    rw [InputKind.entries, InputKind.decode, tagged_cons rfl (by simp)]
    simp [InputKind.readable]

theorem outputKind_decode (kind : OutputKind) :
    OutputKind.decode (.obj kind.entries) = if kind.readable then some kind else none := by
  cases kind with
  | woDigital io =>
    rw [OutputKind.entries, OutputKind.decode, tagged_cons rfl (by simp [ WagoIO.entries])]
    simp -implicitDefEqProofs [wagoIO_decode, OutputKind.readable]
  | woShutter io =>
    rw [OutputKind.entries, OutputKind.decode, tagged_cons rfl (by simp [WagoIOUpDown.entries])]
    simp -implicitDefEqProofs [wagoIOUpDown_decode, OutputKind.readable]
  | hueOutputLightRGB | mySensorsOutputShutterSmart =>
    rw [OutputKind.entries, OutputKind.decode, tagged_cons rfl (by simp)]
    simp [OutputKind.readable]

/-- The keys of a kind. -/
theorem inputKind_keys (kind : InputKind) : ∀ e ∈ kind.entries, e.1 ∉ ioNames ∧ e.1 ∉ ["var_type", "state"] := by
  cases kind <;> simp [InputKind.entries, WagoIO.entries, Date.entries, ioNames]

theorem outputKind_keys (kind : OutputKind) : ∀ e ∈ kind.entries, e.1 ∉ ioNames ∧ e.1 ∉ ["var_type", "state"] := by
  cases kind <;> simp [OutputKind.entries, WagoIO.entries, WagoIOUpDown.entries, ioNames]

/-- The fields that inputs and outputs share, around the entries of the kind. -/
theorem input_decode_entries (input : Input) {own : Entries} (ho : ∀ e ∈ own, e.1 ∉ ioNames) :
    Input.decode (.obj ([("name", .str input.name), ("id", .str input.id), ("io_type", .str input.ioType)] ++ own ++
      [("gui_type", .str input.guiType), ("visible", .bool input.visible), ("rw", .bool input.rw)])) =
    (InputKind.decode (.obj own)).map fun kind => { input with kind := kind } := by
  rw [Input.decode, flatten_rest ho (by simp [ioNames]) (by simp [ioNames])]
  simp only [required_flatten ho (show "name" ∈ ioNames by decide),
    required_flatten ho (show "id" ∈ ioNames by decide), defaulted_flatten ho (show "io_type" ∈ ioNames by decide),
    defaulted_flatten ho (show "gui_type" ∈ ioNames by decide),
    defaulted_flatten ho (show "visible" ∈ ioNames by decide), defaulted_flatten ho (show "rw" ∈ ioNames by decide)]
  cases InputKind.decode (.obj own) <;> simp -implicitDefEqProofs

theorem output_decode_entries (output : Output) {own : Entries} (ho : ∀ e ∈ own, e.1 ∉ ioNames) :
    Output.decode (.obj ([("name", .str output.name), ("id", .str output.id), ("io_type", .str output.ioType)] ++
      own ++ [("gui_type", .str output.guiType), ("visible", .bool output.visible), ("rw", .bool output.rw)])) =
    (OutputKind.decode (.obj own)).map fun kind => { output with kind := kind } := by
  rw [Output.decode, flatten_rest ho (by simp [ioNames]) (by simp [ioNames])]
  simp only [required_flatten ho (show "name" ∈ ioNames by decide),
    required_flatten ho (show "id" ∈ ioNames by decide), defaulted_flatten ho (show "io_type" ∈ ioNames by decide),
    defaulted_flatten ho (show "gui_type" ∈ ioNames by decide),
    defaulted_flatten ho (show "visible" ∈ ioNames by decide), defaulted_flatten ho (show "rw" ∈ ioNames by decide)]
  cases OutputKind.decode (.obj own) <;> simp -implicitDefEqProofs

/-- No kind of output is a kind of input. -/
theorem inputKind_decode_output (kind : OutputKind) : InputKind.decode (.obj kind.entries) = none := by
  cases kind with
  | hueOutputLightRGB | mySensorsOutputShutterSmart =>
    rw [OutputKind.entries, InputKind.decode, tagged_cons rfl (by simp)]
    simp
  | woDigital io =>
    rw [OutputKind.entries, InputKind.decode, tagged_cons rfl (by simp [ WagoIO.entries])]
    simp
  | woShutter io =>
    rw [OutputKind.entries, InputKind.decode, tagged_cons rfl (by simp [WagoIOUpDown.entries])]
    simp

theorem outputKind_decode_input (kind : InputKind) : OutputKind.decode (.obj kind.entries) = none := by
  cases kind with
  | mySensorsInputAnalog | mySensorsInputTemp | scenario =>
    rw [InputKind.entries, OutputKind.decode, tagged_cons rfl (by simp)]
    simp
  | wiDigitalBP io | wiDigitalLong io | wiDigitalTriple io =>
    rw [InputKind.entries, OutputKind.decode, tagged_cons rfl (by simp [ WagoIO.entries])]
    simp
  | inputTime d =>
    rw [InputKind.entries, OutputKind.decode, tagged_cons rfl (by simp [Date.entries])]
    simp

theorem jsonIOData_readBack (d : JsonIOData) :
    ReadBack JsonIOData.decode (.obj d.entries) d (d.readable = true) := by
  cases d with
  | input io =>
    have hi := input_decode_entries io fun e he => (inputKind_keys io.kind e he).1
    have ho := output_decode_entries ⟨io.name, io.id, io.ioType, .hueOutputLightRGB, io.guiType, io.visible, io.rw⟩
      fun e he => (inputKind_keys io.kind e he).1
    rw [inputKind_decode] at hi
    rw [outputKind_decode_input] at ho
    constructor <;> intro h <;> simp only [JsonIOData.readable] at h <;>
      simp only [JsonIOData.decode, De.untagged, JsonIOData.entries, Input.entries, hi, ho, h] <;> rfl
  | output io =>
    have hi := input_decode_entries ⟨io.name, io.id, io.ioType, .scenario, io.guiType, io.visible, io.rw⟩
      fun e he => (outputKind_keys io.kind e he).1
    have ho := output_decode_entries io fun e he => (outputKind_keys io.kind e he).1
    rw [inputKind_decode_output] at hi
    rw [outputKind_decode] at ho
    constructor <;> intro h <;> simp only [JsonIOData.readable] at h <;>
      simp only [JsonIOData.decode, De.untagged, JsonIOData.entries, Output.entries, hi, ho, h] <;> rfl

/-! ## Responses -/

theorem jsonIOData_keys (d : JsonIOData) : ∀ e ∈ d.entries, e.1 ∉ ["var_type", "state"] := by
  intro e he
  cases d with
  | input io =>
    simp only [JsonIOData.entries, Input.entries, List.mem_append] at he
    rcases he with (he | he) | he
    · revert e; simp
    · exact (inputKind_keys io.kind e he).2
    · revert e; simp
  | output io =>
    simp only [JsonIOData.entries, Output.entries, List.mem_append] at he
    rcases he with (he | he) | he
    · revert e; simp
    · exact (outputKind_keys io.kind e he).2
    · revert e; simp

theorem roomIOData_readBack (d : RoomIOData) :
    ReadBack RoomIOData.decode d.encode d (d.ioData.readable = true) := by
  have ho := jsonIOData_keys d.ioData
  have hio := jsonIOData_readBack d.ioData
  have hdecode : RoomIOData.decode d.encode =
      (JsonIOData.decode (.obj d.ioData.entries)).map fun ioData => { d with ioData := ioData } := by
    rw [RoomIOData.decode, RoomIOData.encode, ← List.nil_append d.ioData.entries,
      flatten_rest ho (by simp) (by simp)]
    simp only [required_flatten ho (show "var_type" ∈ ["var_type", "state"] by decide),
      required_flatten ho (show "state" ∈ ["var_type", "state"] by decide)]
    cases h : JsonIOData.decode (.obj d.ioData.entries) <;> simp -implicitDefEqProofs [h]
  exact ⟨fun h => by rw [hdecode, hio.read h]; rfl, fun h => by rw [hdecode, hio.fail h]; rfl⟩

theorem roomData_readBack (d : RoomData) :
    ReadBack RoomData.decode d.encode d (∀ x ∈ d.items, x.ioData.readable = true) := by
  have hv := ReadBack.vec fun x (_ : x ∈ d.items) => roomIOData_readBack x
  exact ⟨fun h => by simp -implicitDefEqProofs [RoomData.decode, RoomData.encode, hv.read h],
    fun h => by simp -implicitDefEqProofs [RoomData.decode, RoomData.encode, hv.fail h]⟩

/-- Every item of every room can be read back. -/
def HomeData.readable (d : HomeData) : Prop := ∀ room ∈ d.home, ∀ x ∈ room.items, x.ioData.readable = true

theorem homeData_readBack (d : HomeData) : ReadBack HomeData.decode d.encode d d.readable := by
  have hv := ReadBack.vec fun x (_ : x ∈ d.home) => roomData_readBack x
  exact ⟨fun h => by simp -implicitDefEqProofs [HomeData.decode, HomeData.encode, hv.read h, emptyDecode],
    fun h => by simp -implicitDefEqProofs [HomeData.decode, HomeData.encode, hv.fail h]⟩

theorem getHome_readBack (d : HomeData) :
    ReadBack Response.decode (Response.encode (.getHome d)) (.getHome d) d.readable := by
  have hd := homeData_readBack d
  have hdecode : Response.decode (Response.encode (.getHome d)) = (HomeData.decode d.encode).map .getHome := by
    rw [Response.decode, Response.encode, tagged_cons rfl (by simp)]
    cases h : HomeData.decode d.encode <;> simp -implicitDefEqProofs [dataVariant, h]
  exact ⟨fun h => by rw [hdecode, hd.read h]; rfl, fun h => by rw [hdecode, hd.fail h]; rfl⟩

/-! ## The home -/

/-- Every output is readable, and so is every input: no shutter, and no date with a part left out. -/
def IoConfig.readable (io : IoConfig) : Prop :=
  (∀ input ∈ io.inputs, ∀ d, input.kind = .inputTime d → d.year ≠ none ∧ d.month ≠ none ∧ d.day ≠ none) ∧
    ∀ output ∈ io.outputs, ∀ wio, output.kind ≠ .woShutter wio

theorem inputKind_readable_iff (kind : InputKind) :
    kind.readable = true ↔ ∀ d, kind = .inputTime d → d.year ≠ none ∧ d.month ≠ none ∧ d.day ≠ none := by
  cases kind <;> simp [InputKind.readable, Date.readable, Option.isSome_iff_ne_none, and_assoc]

theorem outputKind_readable_iff (kind : OutputKind) :
    kind.readable = true ↔ ∀ wio, kind ≠ .woShutter wio := by
  cases kind <;> simp [OutputKind.readable]

theorem readable_makeRoomIos {io : IoConfig} {inputMap : InputSharedContextMap}
    {outputMap : OutputSharedContextMap} (hc : Complete io inputMap outputMap) {room : Room}
    (hr : room ∈ io.home.rooms) : (∀ x ∈ makeRoomIos room inputMap outputMap, x.ioData.readable = true) ↔
      (∀ input ∈ room.inputs, input.kind.readable = true) ∧ ∀ output ∈ room.outputs, output.kind.readable = true := by
  have hmap : (∀ x ∈ makeRoomIos room inputMap outputMap, x.ioData.readable = true) ↔
      ∀ d ∈ (makeRoomIos room inputMap outputMap).map (·.ioData), d.readable = true := by
    rw [List.forall_mem_map]
  rw [hmap, makeRoomIos_ioData hc hr, List.forall_mem_append, List.forall_mem_map, List.forall_mem_map]
  rfl

/-- The items of a home are the inputs and outputs of its configuration, none left out. -/
theorem homeData_readable_iff {io : IoConfig} {inputMap : InputSharedContextMap}
    {outputMap : OutputSharedContextMap} (hc : Complete io inputMap outputMap) :
    (HomeData.new io inputMap outputMap).readable ↔ io.readable := by
  have hrooms : (HomeData.new io inputMap outputMap).readable ↔ ∀ room ∈ io.home.rooms,
      (∀ input ∈ room.inputs, input.kind.readable = true) ∧ ∀ output ∈ room.outputs, output.kind.readable = true := by
    rw [HomeData.readable, HomeData.new, List.forall_mem_map]
    exact forall₂_congr fun room hr => readable_makeRoomIos hc hr
  rw [hrooms]
  simp only [inputKind_readable_iff, outputKind_readable_iff]
  constructor
  · intro h
    constructor
    · intro input hi
      obtain ⟨room, hr, hi⟩ := List.mem_flatMap.1 hi
      exact (h room hr).1 input hi
    · intro output ho
      obtain ⟨room, hr, ho⟩ := List.mem_flatMap.1 ho
      exact (h room hr).2 output ho
  · rintro ⟨hin, hout⟩ room hr
    exact ⟨fun input hi => hin input (List.mem_flatMap.2 ⟨room, hr, hi⟩),
      fun output ho => hout output (List.mem_flatMap.2 ⟨room, hr, ho⟩)⟩

/-- **The `GetHome` answer decodes back to itself** exactly for the configurations without shutters and
without open dates, whatever the values are. -/
theorem getHome_decodes_iff {codec : Codec} {io : IoConfig} {inputMap : InputSharedContextMap}
    {outputMap : OutputSharedContextMap} (hc : Complete io inputMap outputMap)
    (htext : codec.parse (toJsonString codec (.getHome (HomeData.new io inputMap outputMap))) =
      some (Response.encode (.getHome (HomeData.new io inputMap outputMap)))) :
    Response.tryFrom codec.parse (toJsonString codec (.getHome (HomeData.new io inputMap outputMap))) =
      some (.getHome (HomeData.new io inputMap outputMap)) ↔ io.readable := by
  have hb := getHome_readBack (HomeData.new io inputMap outputMap)
  rw [homeData_readable_iff hc] at hb
  rw [Response.tryFrom, htext, Option.bind_some]
  by_cases h : io.readable
  · exact iff_of_true (hb.read h) h
  · exact iff_of_false (by rw [hb.fail h]; exact nofun) h

/-! A home with one lamp that is on. -/

def hallLamp : Output := ⟨"Lamp", "lamp", "light", .woDigital ⟨"plc", "502", 3⟩, "light", true, true⟩

def hallWith (output : Output) : IoConfig := ⟨⟨[⟨"Hall", "lobby", [], [output], 0⟩]⟩⟩

/-- The maps of a home, with one output value known. -/
def hallOutputs (output : Output) (value : IOValue) : OutputSharedContextMap :=
  (makeOutputContextMap (hallWith output)).modify output.id fun context => { context with value := some value }

theorem hall_complete (output : Output) (value : IOValue) :
    Complete (hallWith output) (makeInputContextMap (hallWith output) ⟨[]⟩) (hallOutputs output value) := by
  obtain ⟨hi, ho⟩ := complete_make (hallWith output) ⟨[]⟩
  exact ⟨hi, fun o h => HMap.mem_modify.2 (ho o h)⟩

/-- The answer for such a home. -/
def hallAnswer (output : Output) (value : IOValue) : Response :=
  .getHome (HomeData.new (hallWith output) (makeInputContextMap (hallWith output) ⟨[]⟩) (hallOutputs output value))

def lampText : String :=
  "\x7b\"msg\":\"get_home\",\"data\":\x7b\"home\":[\x7b\"name\":\"Hall\",\"type\":\"lobby\",\"hits\":\"0\",\"items\":[" ++
  "\x7b\"name\":\"Lamp\",\"id\":\"lamp\",\"io_type\":\"light\",\"type\":\"WODigital\",\"host\":\"plc\",\"port\":\"502\"," ++
  "\"var\":3,\"gui_type\":\"light\",\"visible\":true,\"rw\":true,\"var_type\":\"bool\",\"state\":\"true\"\x7d" ++
  "]\x7d],\"cameras\":\x7b\x7d,\"audio\":\x7b\x7d\x7d\x7d"

theorem getHome_decodes_lamp :
    let codec := Codec.only lampText (hallAnswer hallLamp (.bool true)).encode
    Response.tryFrom codec.parse (toJsonString codec (hallAnswer hallLamp (.bool true))) =
      some (hallAnswer hallLamp (.bool true)) :=
  (getHome_decodes_iff (hall_complete hallLamp (.bool true)) (parse_only lampText _)).2
    (by constructor <;> simp [hallWith, hallLamp, IoConfig.inputs, IoConfig.outputs])

/-! A home with a shutter that is up. -/

def hallBlinds : Output :=
  ⟨"Blinds", "blinds", "shutter", .woShutter ⟨"plc", "502", 1, 2, .fromSecs 25⟩, "shutter", true, true⟩

def blindsText : String :=
  "\x7b\"msg\":\"get_home\",\"data\":\x7b\"home\":[\x7b\"name\":\"Hall\",\"type\":\"lobby\",\"hits\":\"0\",\"items\":[" ++
  "\x7b\"name\":\"Blinds\",\"id\":\"blinds\",\"io_type\":\"shutter\",\"type\":\"WOShutter\",\"host\":\"plc\",\"port\":\"502\"," ++
  "\"var_up\":1,\"var_down\":2,\"time\":\x7b\"secs\":25,\"nanos\":0\x7d,\"gui_type\":\"shutter\",\"visible\":true,\"rw\":true," ++
  "\"var_type\":\"string\",\"state\":\"up\"\x7d]\x7d],\"cameras\":\x7b\x7d,\"audio\":\x7b\x7d\x7d\x7d"

/-- Its answer is not read at all. -/
theorem getHome_blinds_unreadable :
    let codec := Codec.only blindsText (hallAnswer hallBlinds (.shutter .up)).encode
    Complete (hallWith hallBlinds) (makeInputContextMap (hallWith hallBlinds) ⟨[]⟩)
      (hallOutputs hallBlinds (.shutter .up)) ∧
    codec.parse (toJsonString codec (hallAnswer hallBlinds (.shutter .up))) =
      some (hallAnswer hallBlinds (.shutter .up)).encode ∧
    Response.tryFrom codec.parse (toJsonString codec (hallAnswer hallBlinds (.shutter .up))) = none := by
  have hc := hall_complete hallBlinds (.shutter .up)
  have hfail : ¬ (hallWith hallBlinds).readable := fun h => h.2 hallBlinds (by decide) _ rfl
  refine ⟨hc, parse_only _ _, ?_⟩
  rw [Response.tryFrom, parse_only, Option.bind_some]
  exact (getHome_readBack _).fail ((homeData_readable_iff hc).not.2 hfail)

/-! ## Events -/

/-- An event is always read; its value is what `from` makes of the text that `into` printed. -/
theorem event_decode (d : EventData) :
    Response.decode (Response.encode (.event d)) =
      some (.event { d with data := ⟨d.data.id, IOValue.fromStr d.data.value.intoString⟩ }) := by
  have hdata : IOData.decode d.data.encode = some ⟨d.data.id, IOValue.fromStr d.data.value.intoString⟩ := by
    simp [IOData.decode, IOData.encode, IOValue.encode, IOValue.decode]
  have hevent : EventData.decode d.encode =
      some { d with data := ⟨d.data.id, IOValue.fromStr d.data.value.intoString⟩ } := by
    simp -implicitDefEqProofs [EventData.decode, EventData.encode, hdata]
  rw [Response.decode, Response.encode, tagged_cons rfl (by simp)]
  simp -implicitDefEqProofs [dataVariant, hevent]

/-- The event of a feedback message, as `handle_connection` makes it. -/
def changed (id : String) (v : IOValue) : Response := .event (EventData.new .ioChanged ⟨id, v⟩)

/-- All of the event of a moving shutter but its value is that of one that is up. -/
theorem changed_decode (id : String) (v : IOValue) (hv : ∀ s, v ≠ .string s) :
    Response.decode (changed id v).encode =
      some (changed id (if v.moving then .shutter .up else v)) := by
  rw [changed, event_decode]
  cases hm : v.moving with
  | false => simp [changed, EventData.new, (fromStr_intoString hv).2 hm]
  | true =>
    have hup : IOValue.intoString (.shutter .up) = upStr := rfl
    simp [changed, EventData.new, intoString_moving hm, hup]

/-- **An event reaches the client** with its value, when that is a boolean, an integer or a shutter at
rest. A shutter on its way up arrives as one that is up. -/
theorem event_decodes {codec : Codec} {id : String} {v : IOValue}
    (htext : codec.parse (toJsonString codec (changed id v)) = some (changed id v).encode) :
    ((∃ b, v = .bool b) ∨ (∃ i, v = .int i) ∨ v = .shutter .up ∨ v = .shutter .down →
      Response.tryFrom codec.parse (toJsonString codec (changed id v)) = some (changed id v)) ∧
    (v = .shutter .movingUp →
      Response.tryFrom codec.parse (toJsonString codec (changed id v)) = some (changed id (.shutter .up))) := by
  have hread : ∀ hv : ∀ s, v ≠ .string s, Response.tryFrom codec.parse (toJsonString codec (changed id v)) =
      some (changed id (if v.moving then .shutter .up else v)) := fun hv => by
    rw [Response.tryFrom, htext, Option.bind_some, changed_decode id v hv]
  constructor
  · rintro (⟨b, rfl⟩ | ⟨i, rfl⟩ | rfl | rfl) <;> exact hread nofun
  · rintro rfl
    exact hread nofun

def dimmerText : String :=
  "\x7b\"msg\":\"event\",\"data\":\x7b\"event_raw\":\"io_changed, id:dimmer state:-7\",\"type\":3," ++
  "\"type_str\":\"io_changed\",\"data\":\x7b\"id\":\"dimmer\",\"state\":\"-7\"\x7d\x7d\x7d"

theorem event_decodes_dimmer :
    let codec := Codec.only dimmerText (changed "dimmer" (.int (-7))).encode
    Response.tryFrom codec.parse (toJsonString codec (changed "dimmer" (.int (-7)))) =
      some (changed "dimmer" (.int (-7))) :=
  (event_decodes (parse_only dimmerText _)).1 (.inr (.inl ⟨-7, rfl⟩))

def risingText : String :=
  "\x7b\"msg\":\"event\",\"data\":\x7b\"event_raw\":\"io_changed, id:blinds state:up\",\"type\":3," ++
  "\"type_str\":\"io_changed\",\"data\":\x7b\"id\":\"blinds\",\"state\":\"up\"\x7d\x7d\x7d"

/-- Blinds on their way up are not seen to move. -/
theorem event_rising_distorted :
    let codec := Codec.only risingText (changed "blinds" (.shutter .movingUp)).encode
    Response.tryFrom codec.parse (toJsonString codec (changed "blinds" (.shutter .movingUp))) ≠
      some (changed "blinds" (.shutter .movingUp)) := by
  dsimp only
  rw [Response.tryFrom, parse_only, Option.bind_some, changed_decode "blinds" (.shutter .movingUp) nofun]
  simp [changed, EventData.new, IOValue.moving]

end Calaos
