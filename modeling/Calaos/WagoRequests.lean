import Calaos.WagoTurn
/-!
# The addresses a Wago controller talks to

Every write request is for the coil of a variable of an output in `output_map`, and every read request is for
such a variable too, or is the keep-alive, which reads address 0. That holds in every state, after an error as
well, so there is one invariant (`Within`) that every piece of the program keeps.
-/
namespace Calaos.Wago

open Eff Runs

/-! ## Requests of the client -/

/-- Since `w₀`, writes were asked for at addresses in `W` and reads at addresses in `R`. -/
structure Asked (W R : UInt16 → Prop) (w₀ w : World) : Prop where
  writes : ∀ r ∈ w.writes, r ∈ w₀.writes ∨ W r.addr
  reads : ∀ a ∈ w.reads, a ∈ w₀.reads ∨ R a

/-- A request is asked for where it is. -/
theorem requests_asked (W R : UInt16 → Prop) (w₀ : World) : Requests W R (Asked W R w₀) fun _ => True where
  idle w w' h hw hr := ⟨by rw [hw]; exact h.writes, by rw [hr]; exact h.reads⟩
  wrote w w' r h hr hw hreads := by
    refine ⟨?_, by rw [hreads]; exact h.reads⟩
    intro r' hr'
    rw [hw] at hr'
    rcases List.mem_append.1 hr' with hr' | hr'
    · exact h.writes r' hr'
    · rw [List.mem_singleton.1 hr']
      exact .inr hr
  read w w' address h ha hw hreads := by
    refine ⟨by rw [hw]; exact h.writes, ?_⟩
    intro a ha'
    rw [hreads] at ha'
    rcases List.mem_append.1 ha' with ha' | ha'
    · exact h.reads a ha'
    · rw [List.mem_singleton.1 ha']
      exact .inr ha
  modbus := trivial
  panic := trivial

/-! ## Requests of the controller -/

/-- The coil of a variable of an output with one of these kinds. -/
def CoilOf (held : OutputKind → Prop) (address : UInt16) : Prop :=
  ∃ kind, held kind ∧ ∃ var ∈ varsOf kind, u16TryFrom (coilAddr var) = some address

/-- Where such a variable is read. -/
def InputOf (held : OutputKind → Prop) (address : UInt16) : Prop :=
  ∃ kind, held kind ∧ ∃ var ∈ varsOf kind, u16TryFrom (var + 0x200) = some address

/-- The kind of some output in the map. -/
def Held (m : OutputContextMap) (kind : OutputKind) : Prop := ∃ id, kindOf m id = some kind

/-- Since `w₀`, every request was for an output of these kinds, or for the keep-alive. -/
abbrev Allowed (held : OutputKind → Prop) (w₀ : World) : World → Prop :=
  Asked (CoilOf held) (fun address => address = 0 ∨ InputOf held address) w₀

theorem Allowed.mono {held held' : OutputKind → Prop} {w₀ w : World} (h : Allowed held w₀ w)
    (hk : ∀ kind, held kind → held' kind) : Allowed held' w₀ w := by
  constructor
  · intro r hr
    rcases h.writes r hr with hr | ⟨kind, hheld, hc⟩
    · exact .inl hr
    · exact .inr ⟨kind, hk kind hheld, hc⟩
  · intro a ha
    rcases h.reads a ha with ha | ha | ⟨kind, hheld, hc⟩
    · exact .inl ha
    · exact .inr (.inl ha)
    · exact .inr (.inr ⟨kind, hk kind hheld, hc⟩)

/-- The invariant: every request was for an output in the map. -/
structure Within (m : OutputContextMap) (w₀ : World) (s : St) : Prop where
  kinds : kindOf s.outputMap = kindOf m
  asked : Allowed (Held m) w₀ s.world

section
-- Unfolding a request must not end in 32-bit arithmetic on an unknown variable.
attribute [local irreducible] u16TryFrom

variable {m : OutputContextMap} {w₀ : World} {env : Env} {id : String} {s s' : St} {e : Fault}

theorem within_iff : Within m w₀ s ↔ Frame (kindOf m) (Allowed (Held m) w₀) s :=
  ⟨fun h => ⟨h.kinds, h.asked⟩, fun h => ⟨h.kinds, h.world⟩⟩

/-- The controller asks for the coils of the outputs in the map, and its keep-alive for address 0. -/
theorem handles_within (m : OutputContextMap) (w₀ : World) :
    Handles (kindOf m) (CoilOf (Held m)) (fun address => address = 0 ∨ InputOf (Held m) address)
      (Allowed (Held m) w₀) fun _ => True where
  toRequests := requests_asked _ _ w₀
  feedback := trivial
  coil id kind hk var hv := ⟨fun _ ha => ⟨kind, ⟨id, hk⟩, var, hv, ha⟩, fun _ => trivial⟩
  keepAlive := .inl rfl

theorem holds_startOutput :
    Holds (Frame (kindOf m) (Allowed (Held m) w₀)) (fun _ => True) (startOutput env id) := by
  have h := handles_within m w₀
  refine .get_bind fun s hs => ?_
  cases hl : s.outputMap.lookup id with
  | none => exact .pure _
  | some ctx =>
    have hkind := hs.kind hl
    simp only
    cases hk : ctx.output.kind with
    | hueOutputLightRGB => exact .pure _
    | mySensorsOutputShutterSmart => exact .pure _
    | woDigital io =>
      rw [hk] at hkind
      refine (holds_onWorld (h.readVar ?_ trivial)).bind fun value => h.updateState trivial _
      intro address ha
      exact .inr ⟨.woDigital io, ⟨id, hkind⟩, io.var, by simp [varsOf], ha⟩
    | woShutter io =>
      rw [hk] at hkind
      exact (h.stop hkind).bind fun _ => h.sendFeedback trivial _

theorem holds_startup : ∀ ids : List String,
    Holds (Frame (kindOf m) (Allowed (Held m) w₀)) (fun _ => True) (startup env ids)
  | [] => .pure _
  | _ :: ids => holds_startOutput.bind fun _ => holds_startup ids

end

/-! ## Any state of a run -/

/-- A state of a controller that was given `m`: where the first loop fails, or later. -/
inductive Reaches (env : Env) (w : World) (m : OutputContextMap) : St → Prop
  | starting {s : St} (order : List String) (ho : HMap.Enumerates order m) (e : Fault)
      (he : startup env order (init w m) = .error e s) : Reaches env w m s
  | looping {s₀ s : St} (h₀ : Started env w m s₀) (h : Visits env s₀ s) : Reaches env w m s

/-- **Every request is for an output in the map**, or is the keep-alive. -/
theorem Reaches.within {env : Env} {w : World} {m : OutputContextMap} {s : St} (h : Reaches env w m s) :
    Within m w s := by
  rw [within_iff]
  have hinit : Frame (kindOf m) (Allowed (Held m) w) (init w m) := ⟨rfl, fun _ hr => .inl hr, fun _ ha => .inl ha⟩
  have hturn : ∀ l, Keeps (Frame (kindOf m) (Allowed (Held m) w)) (iteration env l) := fun l =>
    ((handles_within m w).iteration l).keeps
  cases h with
  | starting order _ e he => exact (holds_startup order).keeps.error hinit he
  | @looping s₀ _ h₀ h =>
    obtain ⟨order, _, hs⟩ := h₀
    have hstart := (holds_startup order).keeps.ok hinit hs
    have hrun : ∀ {ls : List Label} {t : St}, run (step env) s₀ ls = some t →
        Frame (kindOf m) (Allowed (Held m) w) t := by
      intro ls t hr
      exact run_invariant (step env) (fun _ l _ hi ht => (hturn l).ok hi (step_eq_some.1 ht).2) hstart hr
    cases h with
    | between ls hr => exact hrun hr
    | failed ls hr l _ e he => exact (hturn l).error (hrun hr) he

end Calaos.Wago
