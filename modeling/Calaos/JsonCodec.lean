import Calaos.JsonProtocol
import Calaos.Serde
/-!
# The websocket messages as JSON (the derives of calaos_json_protocol.rs, config/io.rs, io_context.rs)

Each type has its encoder, from the derived `Serialize`, and its decoder, from the derived
`Deserialize`, both in the order of the fields of the source. `Request` is only read here, as by the
server; its encoder is with the client. The skipped variant `Request::Event` has no name, so no text is
read as one.

The decoders of the numbers in a configuration are made for XML and take a text or a number. The
encoders are the standard ones: a duration is an object, an absent number is `null`.
-/
namespace Calaos

open Serde

/-! ## Configuration -/

/-- `deserialize_number_from_string::<u32>`. -/
def u32FromString : De UInt32 := fun json =>
  (De.orParsed (Decimal.parseUnsigned 32) (De.unsigned 32) json).map UInt32.ofNat

/-- `deserialize_seconds_from_string`. -/
def secondsFromString : De Duration := fun json =>
  (De.orParsed (Decimal.parseUnsigned 64) (De.unsigned 64) json).map fun n => .fromSecs (UInt64.ofNat n)

/-- `deserialize_opt_number_from_string::<u32>`. -/
def optU32FromString : De (Option UInt32) := fun json => (u32FromString json).map some

/-- `deserialize_opt_number_from_string::<i32>`. -/
def optI32FromString : De (Option Int32) := fun json =>
  (De.orParsed (Decimal.parseSigned 31) (De.signed 31) json).map fun n => some (Int32.ofInt n)

/-- `Serialize for Duration`. -/
def Duration.encode (d : Duration) : Json := .obj [("secs", .ofUInt64 d.secs), ("nanos", .ofUInt32 d.nanos)]

/-- An `Option`. -/
def encodeOpt {α : Type} (encode : α → Json) : Option α → Json
  | some a => encode a
  | none => .null

def WagoIO.entries (io : WagoIO) : Entries :=
  [("host", .str io.host), ("port", .str io.port), ("var", .ofUInt32 io.var)]

def WagoIO.decode : De WagoIO := .struct ["host", "port", "var"] fun es => do
  return ⟨← required "host" De.string es, ← required "port" De.string es, ← required "var" u32FromString es⟩

def WagoIOUpDown.entries (io : WagoIOUpDown) : Entries :=
  [("host", .str io.host), ("port", .str io.port), ("var_up", .ofUInt32 io.varUp),
    ("var_down", .ofUInt32 io.varDown), ("time", io.time.encode)]

def WagoIOUpDown.decode : De WagoIOUpDown := .struct ["host", "port", "var_up", "var_down", "time"] fun es => do
  return ⟨← required "host" De.string es, ← required "port" De.string es, ← required "var_up" u32FromString es,
    ← required "var_down" u32FromString es, ← required "time" secondsFromString es⟩

def Date.entries (d : Date) : Entries :=
  [("year", encodeOpt Json.ofInt32 d.year), ("month", encodeOpt Json.ofUInt32 d.month),
    ("day", encodeOpt Json.ofUInt32 d.day), ("hour", .ofUInt32 d.hour), ("min", .ofUInt32 d.min),
    ("sec", .ofUInt32 d.sec)]

def Date.decode : De Date := .struct ["year", "month", "day", "hour", "min", "sec"] fun es => do
  return ⟨← defaulted "year" none optI32FromString es, ← defaulted "month" none optU32FromString es,
    ← defaulted "day" none optU32FromString es, ← required "hour" u32FromString es,
    ← required "min" u32FromString es, ← required "sec" u32FromString es⟩

/-- The names of `InputKind`. -/
def InputKind.names : List String :=
  ["InputTime", "WIDigitalBP", "WIDigitalLong", "WIDigitalTriple", "MySensorsInputAnalog", "MySensorsInputTemp",
    "scenario"]

def InputKind.entries : InputKind → Entries
  | .inputTime d => ("type", .str "InputTime") :: d.entries
  | .wiDigitalBP io => ("type", .str "WIDigitalBP") :: io.entries
  | .wiDigitalLong io => ("type", .str "WIDigitalLong") :: io.entries
  | .wiDigitalTriple io => ("type", .str "WIDigitalTriple") :: io.entries
  | .mySensorsInputAnalog => [("type", .str "MySensorsInputAnalog")]
  | .mySensorsInputTemp => [("type", .str "MySensorsInputTemp")]
  | .scenario => [("type", .str "scenario")]

def InputKind.decode : De InputKind := .tagged "type" (variantNameOrIndex names) fun name json =>
  if name = "InputTime" then (Date.decode json).map .inputTime
  else if name = "WIDigitalBP" then WagoIO.decode json |>.map .wiDigitalBP
  else if name = "WIDigitalLong" then WagoIO.decode json |>.map .wiDigitalLong
  else if name = "WIDigitalTriple" then WagoIO.decode json |>.map .wiDigitalTriple
  else if name = "MySensorsInputAnalog" then De.unit .mySensorsInputAnalog json
  else if name = "MySensorsInputTemp" then De.unit .mySensorsInputTemp json
  else if name = "scenario" then De.unit .scenario json
  else none

/-- The names of `OutputKind`; `WOVolet` is an alias of `WOShutter`. -/
def OutputKind.names : List String :=
  ["HueOutputLightRGB", "WODigital", "WOShutter", "MySensorsOutputShutterSmart"]

def OutputKind.entries : OutputKind → Entries
  | .hueOutputLightRGB => [("type", .str "HueOutputLightRGB")]
  | .woDigital io => ("type", .str "WODigital") :: io.entries
  | .woShutter io => ("type", .str "WOShutter") :: io.entries
  | .mySensorsOutputShutterSmart => [("type", .str "MySensorsOutputShutterSmart")]

def OutputKind.decode : De OutputKind := .tagged "type" (variantNameOrIndex names) fun name json =>
  if name = "HueOutputLightRGB" then De.unit .hueOutputLightRGB json
  else if name = "WODigital" then WagoIO.decode json |>.map .woDigital
  else if name = "WOShutter" ∨ name = "WOVolet" then (WagoIOUpDown.decode json).map .woShutter
  else if name = "MySensorsOutputShutterSmart" then De.unit .mySensorsOutputShutterSmart json
  else none

/-- The keys of an input or an output that do not belong to its kind. -/
def ioNames : List String := ["name", "id", "io_type", "gui_type", "visible", "rw"]

def Input.entries (input : Input) : Entries :=
  [("name", .str input.name), ("id", .str input.id), ("io_type", .str input.ioType)] ++ input.kind.entries ++
    [("gui_type", .str input.guiType), ("visible", .bool input.visible), ("rw", .bool input.rw)]

def Input.decode : De Input := .flatten ioNames fun es rest => do
  return ⟨← required "name" De.string es, ← required "id" De.string es, ← defaulted "io_type" "" De.string es,
    ← InputKind.decode (.obj rest), ← defaulted "gui_type" "" De.string es,
    ← defaulted "visible" false De.bool es, ← defaulted "rw" false De.bool es⟩

def Output.entries (output : Output) : Entries :=
  [("name", .str output.name), ("id", .str output.id), ("io_type", .str output.ioType)] ++ output.kind.entries ++
    [("gui_type", .str output.guiType), ("visible", .bool output.visible), ("rw", .bool output.rw)]

def Output.decode : De Output := .flatten ioNames fun es rest => do
  return ⟨← required "name" De.string es, ← required "id" De.string es, ← defaulted "io_type" "" De.string es,
    ← OutputKind.decode (.obj rest), ← defaulted "gui_type" "" De.string es,
    ← defaulted "visible" false De.bool es, ← defaulted "rw" false De.bool es⟩

/-! ## Values -/

/-- `#[serde(into = "String")]`. -/
def IOValue.encode (v : IOValue) : Json := .str v.intoString

/-- `#[serde(from = "String")]`. -/
def IOValue.decode : De IOValue := fun json => (De.string json).map IOValue.fromStr

def IOAction.decode : De IOAction := fun json => (De.string json).map IOAction.fromStr

def IOData.encode (d : IOData) : Json := .obj [("id", .str d.id), ("state", d.value.encode)]

def IOData.decode : De IOData := .struct ["id", "state"] fun es => do
  return ⟨← required "id" De.string es, ← required "state" IOValue.decode es⟩

/-! ## Responses -/

/-- `serialize_bool_to_string`. -/
def Success.encode (s : Success) : Json := .obj [("success", .str (if s.success then "true" else "false"))]

/-- `deserialize_bool_from_str_or_bool`. -/
def boolFromStrOrBool : De Bool
  | .bool b => some b
  | .str s => if s = "true" then some true else if s = "false" then some false else none
  | _ => none

def Success.decode : De Success := .struct ["success"] fun es => do
  return ⟨← required "success" boolFromStrOrBool es⟩

def JsonIOData.entries : JsonIOData → Entries
  | .input io => io.entries
  | .output io => io.entries

def JsonIOData.decode : De JsonIOData :=
  .untagged (fun json => (Input.decode json).map .input) (fun json => (Output.decode json).map .output)

def RoomIOData.encode (d : RoomIOData) : Json :=
  .obj (d.ioData.entries ++ [("var_type", .str d.varType), ("state", .str d.state)])

def RoomIOData.decode : De RoomIOData := .flatten ["var_type", "state"] fun es rest => do
  return ⟨← JsonIOData.decode (.obj rest), ← required "var_type" De.string es, ← required "state" De.string es⟩

def RoomData.encode (d : RoomData) : Json :=
  .obj [("name", .str d.name), ("type", .str d.typer), ("hits", .str d.hits),
    ("items", .arr (d.items.map RoomIOData.encode))]

def RoomData.decode : De RoomData := .struct ["name", "type", "hits", "items"] fun es => do
  return ⟨← required "name" De.string es, ← defaulted "type" "" De.string es, ← required "hits" De.string es,
    ← required "items" (De.vec RoomIOData.decode) es⟩

/-- `CameraData` and `AudioData`. -/
def emptyDecode : De Unit := .struct [] fun _ => some ()

def HomeData.encode (d : HomeData) : Json :=
  .obj [("home", .arr (d.home.map RoomData.encode)), ("cameras", .obj []), ("audio", .obj [])]

def HomeData.decode : De HomeData := .struct ["home", "cameras", "audio"] fun es => do
  return ⟨← required "home" (De.vec RoomData.decode) es, ← required "cameras" emptyDecode es,
    ← required "audio" emptyDecode es⟩

def EventData.encode (d : EventData) : Json :=
  .obj [("event_raw", .str d.eventRaw), ("type", .ofInt32 d.typer), ("type_str", .str d.typeStr),
    ("data", d.data.encode)]

def EventData.decode : De EventData := .struct ["event_raw", "type", "type_str", "data"] fun es => do
  return ⟨← required "event_raw" De.string es,
    ← defaulted "type" 0 (fun json => (De.signed 31 json).map Int32.ofInt) es,
    ← required "type_str" De.string es, ← required "data" IOData.decode es⟩

def Response.encode : Response → Json
  | .login data => .obj [("msg", .str "login"), ("data", data.encode)]
  | .getHome data => .obj [("msg", .str "get_home"), ("data", data.encode)]
  | .setState data => .obj [("msg", .str "set_state"), ("data", data.encode)]
  | .event data => .obj [("msg", .str "event"), ("data", data.encode)]

/-- A variant with the one field `data`. -/
def dataVariant {α β : Type} (item : De α) (make : α → β) : De β := .struct ["data"] fun es => do
  return make (← required "data" item es)

def Response.decode : De Response := .tagged "msg" variantName fun name json =>
  if name = "login" then dataVariant Success.decode .login json
  else if name = "get_home" then dataVariant HomeData.decode .getHome json
  else if name = "set_state" then dataVariant Success.decode .setState json
  else if name = "event" then dataVariant EventData.decode .event json
  else none

/-! ## Requests -/

def LoginData.decode : De LoginData := .struct ["cn_user", "cn_pass"] fun es => do
  return ⟨← required "cn_user" De.string es, ← required "cn_pass" De.string es⟩

def SetStateData.decode : De SetStateData := .struct ["id", "value"] fun es => do
  return ⟨← required "id" De.string es, ← required "value" IOAction.decode es⟩

def Request.decode : De Request := .tagged "msg" variantName fun name json =>
  if name = "Pong" then dataVariant (De.vec fun j => (De.unsigned 8 j).map UInt8.ofNat) .pong json
  else if name = "login" then dataVariant LoginData.decode .login json
  else if name = "get_home" then De.unit .getHome json
  else if name = "set_state" then dataVariant SetStateData.decode .setState json
  else none

theorem dataVariant_range {α β : Type} {item : De α} {make : α → β} {json : Json} {b : β}
    (hb : dataVariant item make json = some b) : ∃ a, b = make a := by
  have hmake : ∀ es : Entries, (do return make (← required "data" item es)) = some b → ∃ a, b = make a := by
    intro es he
    obtain ⟨a, _, ha⟩ := Option.bind_eq_some_iff.1 he
    cases ha
    exact ⟨a, rfl⟩
  cases json with
  | obj entries => exact hmake entries hb
  | arr items =>
    simp only [dataVariant, De.struct] at hb
    split at hb
    · exact hmake _ hb
    · cases hb
  | _ => cases hb

/-- The skipped variant is never read. -/
theorem Request.decode_ne_event {json : Json} {request : Request} (h : Request.decode json = some request) :
    ∀ kind data, request ≠ .event kind data := by
  refine tagged_range (P := fun r => ∀ kind data, r ≠ .event kind data) ?_ h
  intro name json request hv
  split at hv
  · obtain ⟨_, rfl⟩ := dataVariant_range hv
    exact nofun
  split at hv
  · obtain ⟨_, rfl⟩ := dataVariant_range hv
    exact nofun
  split at hv
  · unfold De.unit at hv
    split at hv <;> cases hv <;> exact nofun
  split at hv
  · obtain ⟨_, rfl⟩ := dataVariant_range hv
    exact nofun
  · cases hv

/-! ## Text -/

/-- `to_json_string`. -/
def toJsonString (codec : Codec) (response : Response) : String := codec.print response.encode

theorem parse_only (text : String) (response : Response) :
    (Codec.only text response.encode).parse (toJsonString (Codec.only text response.encode) response) =
      some response.encode :=
  if_pos rfl

/-- `TryFrom<&str> for Response`. -/
def Response.tryFrom (parse : String → Option Json) (msg : String) : Option Response := (parse msg).bind decode

/-- `TryFrom<&str> for Request`. -/
def Request.tryFrom (parse : String → Option Json) (msg : String) : Option Request := (parse msg).bind decode

theorem Request.tryFrom_ne_event {parse : String → Option Json} {msg : String} {request : Request}
    (h : Request.tryFrom parse msg = some request) : ∀ kind data, request ≠ .event kind data := by
  obtain ⟨json, _, hd⟩ := Option.bind_eq_some_iff.1 h
  exact decode_ne_event hd

end Calaos
