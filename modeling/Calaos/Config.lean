import Calaos.IoValue
/-!
# The two configuration files (core/src/config/io.rs, core/src/config/rules.rs)

The data the XML deserialiser builds, with the source's field names. `typer` is the source's own name
for the XML attribute `type`. A `Duration` is `std`'s: whole seconds and fewer than 10^9 nanoseconds.
-/
namespace Calaos

/-- `std::time::Duration`. -/
structure Duration where
  secs : UInt64
  nanos : UInt32
  nanos_lt : nanos.toNat < 1000000000
deriving DecidableEq

/-- `Duration::from_secs`. -/
def Duration.fromSecs (n : UInt64) : Duration := ⟨n, 0, by decide⟩

/-- The duration as a count of nanoseconds, the unit of every instant of the model. -/
def Duration.toNanos (d : Duration) : Nat := d.secs.toNat * 1000000000 + d.nanos.toNat

/-! ## ioconfig -/

/-- `struct WagoIO`. -/
structure WagoIO where
  host : String
  port : String
  var : UInt32
deriving DecidableEq

/-- `struct WagoIOUpDown`. -/
structure WagoIOUpDown where
  host : String
  port : String
  varUp : UInt32
  varDown : UInt32
  time : Duration
deriving DecidableEq

/-- `struct Date`. -/
structure Date where
  year : Option Int32
  month : Option UInt32
  day : Option UInt32
  hour : UInt32
  min : UInt32
  sec : UInt32
deriving DecidableEq

/-- `enum InputKind`. -/
inductive InputKind where
  | inputTime (d : Date)
  | wiDigitalBP (io : WagoIO)
  | wiDigitalLong (io : WagoIO)
  | wiDigitalTriple (io : WagoIO)
  | mySensorsInputAnalog
  | mySensorsInputTemp
  | scenario
deriving DecidableEq

/-- `struct Input`. -/
structure Input where
  name : String
  id : String
  ioType : String
  kind : InputKind
  guiType : String
  visible : Bool
  rw : Bool
deriving DecidableEq

/-- `enum OutputKind`. -/
inductive OutputKind where
  | hueOutputLightRGB
  | woDigital (io : WagoIO)
  | woShutter (io : WagoIOUpDown)
  | mySensorsOutputShutterSmart
deriving DecidableEq

/-- `struct Output`. -/
structure Output where
  name : String
  id : String
  ioType : String
  kind : OutputKind
  guiType : String
  visible : Bool
  rw : Bool
deriving DecidableEq

/-- `struct Room`; its `internals` are read by nothing. -/
structure Room where
  name : String
  typer : String
  inputs : List Input
  outputs : List Output
  hits : UInt32
deriving DecidableEq

/-- `struct Home`. -/
structure Home where
  rooms : List Room
deriving DecidableEq

/-- `struct IoConfig`. -/
structure IoConfig where
  home : Home
deriving DecidableEq

/-- Every input, in the order of the loops over `home.rooms` and `room.inputs`. -/
def IoConfig.inputs (io : IoConfig) : List Input := io.home.rooms.flatMap (·.inputs)

/-- Every output, in the order of the loops over `home.rooms` and `room.outputs`. -/
def IoConfig.outputs (io : IoConfig) : List Output := io.home.rooms.flatMap (·.outputs)

/-! ## rules -/

namespace Rules

/-- `config::rules::Output`. -/
structure Output where
  id : String
  val : IOAction
deriving DecidableEq

/-- `struct Action`. -/
structure Action where
  typer : String
  output : Output
deriving DecidableEq

/-- `enum Operator`. -/
inductive Operator where
  | equal
  | notEqual
  | greater
  | greaterOrEqual
  | lower
  | lowerOrEqual
deriving DecidableEq, Repr

/-- `config::rules::Input`. -/
structure Input where
  id : String
  operator : Operator
  value : IOValue
deriving DecidableEq

/-- `enum ConditionKind`. -/
inductive ConditionKind where
  | start
  | standard (input : Input)
deriving DecidableEq

/-- `struct Rule`. -/
structure Rule where
  name : String
  typer : String
  conditions : List ConditionKind
  actions : List Action
deriving DecidableEq

/-- `struct RulesConfig`. -/
structure RulesConfig where
  rules : List Rule
deriving DecidableEq

end Rules

end Calaos
