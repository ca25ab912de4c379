import Calaos.Routing
import Calaos.WagoRequests
/-!
# Which controllers drive only their own PLC

The ids are grouped by address from the whole list of outputs, and the contexts are looked up by id in a map
that keeps the last output of each id. The two agree exactly where every output that has an address shares it
with the last output of the same id; elsewhere a controller is given an output of another PLC, or of none.
-/
namespace Calaos.OutputControllers

open Runs

section
variable {Ip : Type}

/-- The kind of an output that is configured for this address. -/
def Owned (parse : Parsers Ip) (config : OutputControllerConfig Ip) (kind : OutputKind) : Prop :=
  outputConfig parse kind = some config

/-- A controller that touches nothing of another PLC: every output in its map is configured for its address,
and so is every variable it ever asks for, in any run and after any error. -/
structure Confined (parse : Parsers Ip) (config : OutputControllerConfig Ip) (map : OutputContextMap) : Prop where
  held : ∀ id context, map.lookup id = some context → Owned parse config context.output.kind
  asked : ∀ env w s, Wago.Reaches env w map s → Wago.Allowed (Owned parse config) w s.world

variable {parse : Parsers Ip} {config : OutputControllerConfig Ip} {map : OutputContextMap}

/-- What a controller asks for is decided by the outputs in its map. -/
theorem confined_of_held (h : ∀ id context, map.lookup id = some context → Owned parse config context.output.kind) :
    Confined parse config map := by
  refine ⟨h, ?_⟩
  intro env w s hs
  refine hs.within.asked.mono ?_
  rintro kind ⟨id, hk⟩
  obtain ⟨context, hl, rfl⟩ := Option.map_eq_some_iff.1 hk
  exact h id context hl

variable [DecidableEq Ip] {io : IoConfig} {outputMap : OutputSharedContextMap}
  {configs : List (OutputControllerConfig Ip)}

/-- The outputs that `filter_output` gives to an address: of every id that belongs to it, the last output. -/
theorem lookup_instance (ho : OutputsOf io outputMap) {id : String} {last : Output} :
    (∃ context, (filterOutput outputMap (idsOf parse io.outputs config)).lookup id = some context ∧
        context.output = last) ↔
      id ∈ idsOf parse io.outputs config ∧ lastOutput io id = some last := by
  have hfound : (outputMap.lookup id).map (·.output) = lastOutput io id := by
    rw [ho, lookup_makeOutputContextMap]
  rw [lookup_filterOutput]
  constructor
  · rintro ⟨context, hl, rfl⟩
    split at hl
    · rename_i hid
      obtain ⟨shared, hs, rfl⟩ := Option.map_eq_some_iff.1 hl
      exact ⟨hid, by rw [← hfound, hs]; rfl⟩
    · cases hl
  · rintro ⟨hid, hlast⟩
    rw [hlast] at hfound
    obtain ⟨shared, hs, rfl⟩ := Option.map_eq_some_iff.1 hfound
    exact ⟨⟨shared.output, shared.value⟩, by rw [if_pos hid, hs]; rfl, rfl⟩

/-- **Every controller keeps to its own PLC exactly when every output that has an address shares it with the
last output of its id.** -/
theorem confined_iff (ho : OutputsOf io outputMap)
    (he : HMap.Enumerates configs (makeOutputControllerMap parse io)) :
    (∀ config map, (config, map) ∈ (launch parse io outputMap configs).instances → Confined parse config map) ↔
      ∀ output ∈ io.outputs, ∀ config, outputConfig parse output.kind = some config →
        ∀ last, lastOutput io output.id = some last → outputConfig parse last.kind = some config := by
  have hinst := (launch_spec outputMap he).1
  constructor
  · intro hconf output hmem config hc last hlast
    have hid : output.id ∈ idsOf parse io.outputs config := mem_idsOf.2 ⟨output, hmem, rfl, hc⟩
    have hin : (config, filterOutput outputMap (idsOf parse io.outputs config)) ∈
        (launch parse io outputMap configs).instances := by
      rw [hinst, List.mem_map]
      exact ⟨config, (he.2 config).2 (mem_makeOutputControllerMap.2 (List.ne_nil_of_mem hid)), rfl⟩
    obtain ⟨context, hl, rfl⟩ := (lookup_instance ho).2 ⟨hid, hlast⟩
    exact (hconf config _ hin).held output.id context hl
  · intro hall config map hin
    rw [hinst, List.mem_map] at hin
    obtain ⟨config', _, hpair⟩ := hin
    cases hpair
    refine confined_of_held ?_
    intro id context hl
    obtain ⟨hid, hlast⟩ := (lookup_instance ho).1 ⟨context, hl, rfl⟩
    obtain ⟨output, hmem, rfl, hc⟩ := mem_idsOf.1 hid
    exact hall output hmem config hc context.output hlast

end

/-- Two lamps on different PLCs share an id. -/
def sharedId : IoConfig := houseOf [lamp "hall" "10.0.0.1" 1, lamp "hall" "10.0.0.2" 2]

/-- The map that the first PLC's controller is given. -/
def sharedIdMap : OutputContextMap :=
  filterOutput (makeOutputContextMap sharedId) (idsOf twoHosts sharedId.outputs (plc "10.0.0.1"))

/-- The first PLC's controller is given the lamp of the second, and reads its variable at once. -/
theorem confined_fails_sharedId :
    (plc "10.0.0.1", sharedIdMap) ∈
      (launch twoHosts sharedId (makeOutputContextMap sharedId) [plc "10.0.0.1", plc "10.0.0.2"]).instances ∧
    sharedIdMap.lookup "hall" = some ⟨lamp "hall" "10.0.0.2" 2, none⟩ ∧
    outputConfig twoHosts (lamp "hall" "10.0.0.2" 2).kind = some (plc "10.0.0.2") ∧
    ¬ Confined twoHosts (plc "10.0.0.1") sharedIdMap ∧
    (Wago.stateAfter (Wago.startup (Wago.plcEnv 1000000 30) ["hall"] (Wago.init Wago.idleWorld sharedIdMap))).world.reads =
      [0x202] := by
  have hl : sharedIdMap.lookup "hall" = some ⟨lamp "hall" "10.0.0.2" 2, none⟩ := by decide +kernel
  refine ⟨?_, hl, by decide +kernel, ?_, by decide +kernel⟩
  · have he : HMap.Enumerates [plc "10.0.0.1", plc "10.0.0.2"] (makeOutputControllerMap twoHosts sharedId) := by
      decide +kernel
    rw [(launch_spec _ he).1]
    exact List.mem_cons_self
  · intro h
    have howned := h.held "hall" _ hl
    revert howned
    unfold Owned
    decide +kernel

/-- With different ids every controller keeps to its PLC. -/
theorem confined_iff_twoPlcs : (launch twoHosts twoPlcs (makeOutputContextMap twoPlcs)
    [plc "10.0.0.1", plc "10.0.0.2"]).instances.Forall fun entry => Confined twoHosts entry.1 entry.2 := by
  have he : HMap.Enumerates [plc "10.0.0.1", plc "10.0.0.2"] (makeOutputControllerMap twoHosts twoPlcs) := by
    decide +kernel
  rw [List.forall_iff_forall_mem]
  rintro ⟨config, map⟩ hin
  refine (confined_iff (fun _ => rfl) he).2 ?_ config map hin
  intro output hmem config hc last hlast
  rw [lastOutput_of_nodup (by decide) hmem] at hlast
  cases hlast
  exact hc

end Calaos.OutputControllers
