import Calaos.IoContext
/-!
# The messages of the websocket (core/src/calaos_json_protocol.rs, core/src/event.rs)

| here | there |
| --- | --- |
| `EventKind`, `EventKind.str`  | `event::Event` and its `From<Event> for &'static str` |
| `Request`, `Response` and below | the enums and structs of the same names; `JsonIOData` is `calaos_json_protocol::IOData` |
| `HomeData.new`, `EventData.new` | the two constructors with logic of their own |

How they are written as JSON and read back is in `JsonCodec`.
-/
namespace Calaos

/-! ## Events -/

/-- `event::Event`. -/
inductive EventKind where
  | unknown
  | ioAdded
  | ioDeleted
  | ioChanged
  | ioPropertyDelete
  | roomAdded
  | roomDeleted
  | roomChanged
  | roomPropertyDelete
  | timeRangeChanged
  | scenarioAdded
  | scenarioDeleted
  | scenarioChanged
  | audioSongChanged
  | audioPlaylistAdd
  | audioPlaylistDelete
  | audioPlaylistMove
  | audioPlaylistReload
  | audioPlaylistCleared
  | audioStatusChanged
  | audioVolumeChanged
  | touchScreenCamera
  | pushNotification
deriving DecidableEq

/-- `kind as i32`. -/
def EventKind.code (kind : EventKind) : Int32 := Int32.ofNat kind.ctorIdx

/-- `impl From<Event> for &'static str`. -/
def EventKind.str : EventKind → String
  | .unknown => "unknown"
  | .ioAdded => "io_added"
  | .ioDeleted => "io_deleted"
  | .ioChanged => "io_changed"
  | .ioPropertyDelete => "io_prop_deleted"
  | .roomAdded => "room_added"
  | .roomDeleted => "room_deleted"
  | .roomChanged => "room_changed"
  | .roomPropertyDelete => "room_prop_deleted"
  | .timeRangeChanged => "timerange_changed"
  | .scenarioAdded => "scenario_added"
  | .scenarioDeleted => "scenario_deleted"
  | .scenarioChanged => "scenario_changed"
  | .audioSongChanged => "audio_song_changed"
  | .audioPlaylistAdd => "playlist_tracks_added"
  | .audioPlaylistDelete => "playlist_tracks_deleted"
  | .audioPlaylistMove => "playlist_tracks_moved"
  | .audioPlaylistReload => "playlist_reload"
  | .audioPlaylistCleared => "playlist_cleared"
  | .audioStatusChanged => "audio_status_changed"
  | .audioVolumeChanged => "audio_volume_changed"
  | .touchScreenCamera => "touchscreen_camera_request"
  | .pushNotification => "push_notif"

/-! ## Requests and responses -/

/-- `struct LoginData`. -/
structure LoginData where
  cnUser : String
  cnPass : String
deriving DecidableEq

/-- `struct SetStateData`. -/
structure SetStateData where
  id : String
  value : IOAction
deriving DecidableEq

/-- `enum Request`. -/
inductive Request where
  | pong (data : List UInt8)
  | login (data : LoginData)
  | getHome
  | setState (data : SetStateData)
  | event (kind : EventKind) (data : IOData)
deriving DecidableEq

/-- `struct Success`. -/
structure Success where
  success : Bool
deriving DecidableEq

/-- `calaos_json_protocol::IOData`. -/
inductive JsonIOData where
  | input (input : Input)
  | output (output : Output)
deriving DecidableEq

/-- `struct RoomIOData`. -/
structure RoomIOData where
  ioData : JsonIOData
  varType : String
  state : String
deriving DecidableEq

/-- `struct RoomData`. -/
structure RoomData where
  name : String
  typer : String
  hits : String
  items : List RoomIOData
deriving DecidableEq

/-- `struct HomeData`; `CameraData` and `AudioData` have no fields. -/
structure HomeData where
  home : List RoomData
  cameras : Unit
  audio : Unit
deriving DecidableEq

/-- `struct EventData`. -/
structure EventData where
  eventRaw : String
  typer : Int32
  typeStr : String
  data : IOData
deriving DecidableEq

/-- `enum Response`. -/
inductive Response where
  | login (data : Success)
  | getHome (data : HomeData)
  | setState (data : Success)
  | event (data : EventData)
deriving DecidableEq

/-- `impl From<SetStateData> for io_context::IODataAction`. -/
def SetStateData.action (data : SetStateData) : IODataAction := ⟨data.id, data.value⟩

/-- `EventData::new`. -/
def EventData.new (kind : EventKind) (data : IOData) : EventData where
  eventRaw := kind.str ++ ", id:" ++ data.id ++ " state:" ++ data.value.intoString
  typer := kind.code
  typeStr := kind.str
  data := data

/-! ## The home -/

/-- `make_io_value_type`: the protocol calls an integer a float. -/
def makeIoValueType : IOValue → String
  | .int _ => "float"
  | .bool _ => "bool"
  | _ => "string"

/-- `make_room_io_data`. -/
def makeRoomIoData (ioData : JsonIOData) : Option IOValue → RoomIOData
  | some v => ⟨ioData, makeIoValueType v, v.intoString⟩
  | none => ⟨ioData, "string", ""⟩

/-- `make_room_input`. -/
def makeRoomInput (inputMap : InputSharedContextMap) (input : Input) : Option RoomIOData :=
  (inputMap.lookup input.id).map fun context => makeRoomIoData (.input input) context.value

/-- `make_room_output`. -/
def makeRoomOutput (outputMap : OutputSharedContextMap) (output : Output) : Option RoomIOData :=
  (outputMap.lookup output.id).map fun context => makeRoomIoData (.output output) context.value

/-- `make_room_ios`. -/
def makeRoomIos (room : Room) (inputMap : InputSharedContextMap) (outputMap : OutputSharedContextMap) :
    List RoomIOData :=
  room.inputs.filterMap (makeRoomInput inputMap) ++ room.outputs.filterMap (makeRoomOutput outputMap)

theorem makeRoomIoData_ioData (ioData : JsonIOData) (value : Option IOValue) :
    (makeRoomIoData ioData value).ioData = ioData := by
  cases value <;> rfl

/-- Where no lookup fails a room has all its inputs and then all its outputs, in order. -/
theorem makeRoomIos_ioData {io : IoConfig} {inputMap : InputSharedContextMap} {outputMap : OutputSharedContextMap}
    (hc : Complete io inputMap outputMap) {room : Room} (hr : room ∈ io.home.rooms) :
    (makeRoomIos room inputMap outputMap).map (·.ioData) = room.inputs.map .input ++ room.outputs.map .output := by
  have hin : ∀ input ∈ room.inputs, (makeRoomInput inputMap input).map (·.ioData) = some (.input input) := by
    intro input hi
    have hmem := hc.1 input (List.mem_flatMap.2 ⟨room, hr, hi⟩)
    obtain ⟨context, hl⟩ := Option.isSome_iff_exists.1 (Finmap.lookup_isSome.2 hmem)
    rw [makeRoomInput, hl, Option.map_some, Option.map_some, makeRoomIoData_ioData]
  have hout : ∀ output ∈ room.outputs, (makeRoomOutput outputMap output).map (·.ioData) = some (.output output) := by
    intro output ho
    have hmem := hc.2 output (List.mem_flatMap.2 ⟨room, hr, ho⟩)
    obtain ⟨context, hl⟩ := Option.isSome_iff_exists.1 (Finmap.lookup_isSome.2 hmem)
    rw [makeRoomOutput, hl, Option.map_some, Option.map_some, makeRoomIoData_ioData]
  rw [makeRoomIos, List.map_append, List.map_filterMap, List.map_filterMap, List.filterMap_congr hin,
    List.filterMap_congr hout]
  simp

/-- `HomeData::new`, with `make_rooms`. -/
def HomeData.new (io : IoConfig) (inputMap : InputSharedContextMap) (outputMap : OutputSharedContextMap) :
    HomeData where
  home := io.home.rooms.map fun room =>
    ⟨room.name, room.typer, toString room.hits.toNat, makeRoomIos room inputMap outputMap⟩
  cameras := ()
  audio := ()

end Calaos
