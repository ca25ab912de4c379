import Calaos.Protocol
import Calaos.RulesEngine
/-!
# The datagram server (core/src/main_server.rs)

| here | there |
| --- | --- |
| `Datagram`                 | what `recv_from` gives, with the two readings of the clock its treatment may take |
| `makeInputVarMap`, `asyncUdpRead` | the functions of these names |
| `handle`, `run`            | the body of the loop of `run`, and the loop over the datagrams received |

Socket and channels work. An address is whatever the socket uses for it.
-/
namespace Calaos.MainServer

open Protocol

variable {Addr : Type}

/-- A received datagram, treated at the instant `now`, with a last look at the clock at `later`. -/
structure Datagram (Addr : Type) where
  bytes : List UInt8
  addr : Addr
  now : Nat
  later : Nat

/-- What the server lets out. -/
inductive Out (Addr : Type) where
  | feedback (ioData : IOData)
  | command (ioAction : IODataAction)
  | reply (addr : Addr)
deriving DecidableEq

def maxDatagramSize : Nat := 65507

/-- `to_bool`. -/
def toBool (value : UInt32) : Bool := value ≠ 0

/-- `make_input_var_map`. -/
def makeInputVarMap (io : IoConfig) : HMap UInt32 Input :=
  io.inputs.foldl (fun map input =>
    match input.kind with
    | .wiDigitalBP wio | .wiDigitalLong wio => map.insert wio.var input
    | _ => map) ∅

/-- `async_udp_read`, once a datagram is there: it may be no text, or no request. -/
def asyncUdpRead (datagram : Datagram Addr) : Option Protocol.Request := do
  let dataStr ← String.fromUTF8? ⟨(datagram.bytes.take maxDatagramSize).toArray⟩
  parseRequest dataStr

/-- 400 ms. -/
def longPress : Nat := 400000000

/-- The body of the loop for a request: the new `last_change`, and what is let out. -/
def handle (inputVarMap : HMap UInt32 Input) (lastChange : HMap UInt32 Nat) (datagram : Datagram Addr) :
    Protocol.Request → HMap UInt32 Nat × List (Out Addr)
  | .discover => (lastChange, [.reply datagram.addr])
  | .wagoInt data =>
    match inputVarMap.lookup data.var with
    | none => (lastChange, [])
    | some input =>
      let dataBool := toBool data.value
      let feedback : Out Addr := .feedback ⟨input.id, .bool dataBool⟩
      match input.kind with
      | .wiDigitalBP _ => (lastChange, [feedback, .command ⟨input.id, .setValue (.bool dataBool)⟩])
      | .wiDigitalLong _ =>
        if dataBool then (lastChange.insert data.var datagram.now, [feedback])
        else
          let instant := (lastChange.lookup data.var).getD datagram.now
          let value : IOValue := if datagram.later - instant < longPress then .int 1 else .int 2
          (lastChange.erase data.var, [feedback, .command ⟨input.id, .setValue value⟩])
      | _ => (lastChange, [feedback])

/-- The loop of `run` on the datagrams received: what it lets out, and whether it is still running
after them. An error of `async_udp_read` ends it. -/
def run (inputVarMap : HMap UInt32 Input) :
    HMap UInt32 Nat → List (Datagram Addr) → List (Out Addr) × Bool
  | _, [] => ([], true)
  | lastChange, datagram :: datagrams =>
    match asyncUdpRead datagram with
    | none => ([], false)
    | some request =>
      let (lastChange, outs) := handle inputVarMap lastChange datagram request
      let (outs', running) := run inputVarMap lastChange datagrams
      (outs ++ outs', running)

/-- `run` as `main` starts it. -/
def serve (io : IoConfig) (datagrams : List (Datagram Addr)) : List (Out Addr) × Bool :=
  run (makeInputVarMap io) ∅ datagrams

/-! ## Bad datagrams -/

/-- Valid UTF-8 that `parse_request` accepts. -/
def Good (datagram : Datagram Addr) : Prop := (asyncUdpRead datagram).isSome = true

instance (datagram : Datagram Addr) : Decidable (Good datagram) := inferInstanceAs (Decidable (_ = true))

/-- Bad datagrams make no difference: the server still runs, and has let out what it lets out without
them. -/
def Unimpressed (io : IoConfig) (datagrams : List (Datagram Addr)) : Prop :=
  (serve io datagrams).2 = true ∧ (serve io datagrams).1 = (serve io (datagrams.filter fun d => Good d)).1

/-- The loop runs on as long as every datagram is a request. -/
theorem run_running (inputVarMap : HMap UInt32 Input) : ∀ (datagrams : List (Datagram Addr))
    (lastChange : HMap UInt32 Nat),
    (run inputVarMap lastChange datagrams).2 = true ↔ ∀ d ∈ datagrams, Good d
  | [], _ => by simp [run]
  | datagram :: datagrams, lastChange => by
    rw [run, List.forall_mem_cons]
    cases h : asyncUdpRead datagram with
    | none => simp [Good, h]
    | some request =>
      simp only [Good, h, Option.isSome_some, true_and]
      exact run_running inputVarMap datagrams _

/-- **A bad datagram ends the server**: it goes on as if nothing had come exactly as long as nothing
bad comes. -/
theorem unimpressed_iff (io : IoConfig) (datagrams : List (Datagram Addr)) :
    Unimpressed io datagrams ↔ ∀ d ∈ datagrams, Good d := by
  constructor
  · rintro ⟨hrun, _⟩
    exact (run_running _ _ _).1 hrun
  · intro h
    refine ⟨(run_running _ _ _).2 h, ?_⟩
    rw [List.filter_eq_self.2 fun d hd => by simpa using h d hd]

/-- The bytes of `ERROR`, which is no request. -/
def errorBytes : List UInt8 := [69, 82, 82, 79, 82]

/-- The bytes of `CALAOS_DISCOVER`. -/
def discoverBytes : List UInt8 := [67, 65, 76, 65, 79, 83, 95, 68, 73, 83, 67, 79, 86, 69, 82]

/-- A discovery is answered, but not after a text that is no request. -/
theorem not_unimpressed_error :
    (serve ⟨⟨[]⟩⟩ [⟨discoverBytes, 7, 0, 0⟩] : List (Out Nat) × Bool) = ([.reply 7], true) ∧
    ¬ Unimpressed ⟨⟨[]⟩⟩ [⟨errorBytes, 7, 0, 0⟩, ⟨discoverBytes, 7, 0, 0⟩] := by
  refine ⟨by decide, ?_⟩
  rintro ⟨hrun, _⟩
  exact absurd hrun (by decide)

end Calaos.MainServer
